import FingerprintHub.Concurrent.Flags

/-!
# Resurrections beside flags

To resurrect a tombstone `contribute` reads it, clears its flags and rewrites it, and
takes no lock on the row before the rewriting `UPDATE`, whose `WHERE` names only the
id. The three statements are safe as long as the row stays a tombstone between them.
Only another resurrection can take that away. `Exclusive` says of a step that it does
not commit one while a second contribution has read the same tombstone.

`Tidy` is what then holds in every state: such a contribution still has its tombstone
and finds the flags that are left to clear, a flagger has counted the flags it will
leave, and every `flag_count` is the number of flags.
-/

namespace FingerprintHub
namespace Concurrent

/-- The step does not commit a resurrection while another contribution that has read the tombstone
is running. `some i` is the id of the tombstone that a contribution has read; the condition is on
the state before the step and which transaction commits in it. -/
def Exclusive (sys sys' : System) : Prop :=
  ∀ tx tx' enc enc' a a' reply pc i drawn drawn',
    sys.activity tx = .running ⟨.contribute enc a, .finish reply, some i, drawn⟩ →
    sys'.activity tx = .done (.contribute enc a) reply →
    sys.activity tx' = .running ⟨.contribute enc' a', pc, some i, drawn'⟩ → tx' = tx

/-- The flag is still to be cleared: the `DELETE` has not begun, or has not come to it yet. -/
def Pc.Uncleared (k : ℤ × ℤ) : Pc → Prop
  | .clearFlags none => True
  | .clearFlags (some todo) => k ∈ todo
  | _ => False

/-- The number of flaggers a flag has counted, from its `COUNT` to its reply. -/
def Pc.counted : Pc → Option ℕ
  | .update _ n => some n
  | .finish (.flag (some result)) => some result.flagCount
  | _ => none

/-- The committed flags of a fingerprint, by consumer. -/
def Db.flaggers (db : Db) (i : ℤ) : Set ℤ := {c | ∃ f, (db.flags.cell (i, c)).committed = some f}

/-- The flags of a fingerprint that a transaction reads, by consumer: those that are committed, as
it has itself changed them. -/
def Db.flaggersSeen (tx : ℕ) (db : Db) (i : ℤ) : Set ℤ :=
  {c | ∃ f, (db.flags.cell (i, c)).view tx = some f}

/-- Rows, flags and sessions agree. The first three clauses are about a contribution on the way to
its `UPDATE`, the fourth about a flag, and the last two are what remains when nothing is running.
They need each other: a commit keeps `flagCount` because the transaction has counted or cleared
all flags there will be. -/
structure Tidy (sys : System) : Prop where
  /-- A contribution that has read a tombstone still has it, -/
  tombstone : ∀ tx enc a pc i drawn,
    sys.activity tx = .running ⟨.contribute enc a, pc, some i, drawn⟩ →
    ∃ r, sys.db.row i = some r ∧ r.status = .deleted
  /-- holds it once it has rewritten it, -/
  holds : ∀ tx enc a reply i drawn,
    sys.activity tx = .running ⟨.contribute enc a, .finish reply, some i, drawn⟩ →
    (sys.db.rows.cell i).Held tx
  /-- and clears every flag of it. -/
  cleared : ∀ tx enc a pc i drawn,
    sys.activity tx = .running ⟨.contribute enc a, pc, some i, drawn⟩ →
    ∀ c f, (sys.db.flags.cell (i, c)).committed = some f →
      pc.Uncleared (i, c) ∨ (sys.db.flags.cell (i, c)).lock = some ⟨tx, some none⟩
  /-- A flag has counted what it sees. -/
  counted : ∀ tx enc a pc drawn n,
    sys.activity tx = .running ⟨.flag enc a, pc, none, drawn⟩ → pc.counted = some n →
    n = (sys.db.flaggersSeen tx a.fingerprintId).ncard
  /-- The column is the number of flags. -/
  flagCount : ∀ i r, sys.db.row i = some r → r.flagCount = (sys.db.flaggers i).ncard
  /-- The foreign key of `fingerprint_flags`. -/
  flagRow : ∀ i c f, (sys.db.flags.cell (i, c)).committed = some f → ∃ r, sys.db.row i = some r

/-- Before the run nothing is running, and a reachable store has its counts right. -/
theorem Tidy.quiet {s : Store} (h_s : s.Reachable) : Tidy (.quiet s) where
  tombstone := fun _ _ _ _ _ _ h_run => Activity.noConfusion h_run
  holds := fun _ _ _ _ _ _ h_run => Activity.noConfusion h_run
  cleared := fun _ _ _ _ _ _ h_run => Activity.noConfusion h_run
  counted := fun _ _ _ _ _ _ h_run => Activity.noConfusion h_run
  flagCount := by
    intro i r h_row
    rw [System.row_quiet] at h_row
    rw [h_s.counted i r h_row]
    -- the flag tables are the same, and so are the flaggers
    congr 1
    ext c
    show s.Flagged i c ↔ ∃ f, ((Versioned.ofTable s.flags).cell (i, c)).committed = some f
    rw [Versioned.cell_ofTable]
    exact Iff.rfl
  flagRow := by
    intro i c f h_f
    change ((Versioned.ofTable s.flags).cell (i, c)).committed = some f at h_f
    rw [Versioned.cell_ofTable] at h_f
    obtain ⟨r, h_r⟩ := h_s.wf.flag_row _ f h_f
    have h_i : f.fingerprintId = i := congrArg Prod.fst (Table.key_of_get? h_f)
    refine ⟨r, ?_⟩
    rw [System.row_quiet, ← h_i]
    exact h_r

/-! ### Who may touch the flags of a row -/

section Holders

variable {sys : System}

/-- A session that has inserted a flag holds the row, and the row is live. -/
theorem Locking.live_of_insert (h_lock : Locking sys) {tx : ℕ} {enc : EncryptText} {a : FlagArgs}
    {pc : Pc} {drawn : Option ℕ} (h_run : sys.activity tx = .running ⟨.flag enc a, pc, none, drawn⟩)
    (h_pc : pc.AfterInsert) :
    (sys.db.rows.cell a.fingerprintId).Held tx ∧
      ∃ r, sys.db.row a.fingerprintId = some r ∧ r.Live := by
  have h_target : (⟨.flag enc a, pc, none, drawn⟩ : Session).target = some a.fingerprintId := by
    cases pc with
    | count status => rfl
    | update status n => rfl
    | finish reply =>
      cases reply with
      | flag result =>
        cases result with
        | some r => rfl
        | none => exact h_pc.elim
      | _ => exact h_pc.elim
    | _ => exact h_pc.elim
  have h_held := h_lock.holds tx _ _ h_run h_target
  refine ⟨h_held, ?_⟩
  obtain ⟨l, -, -, h_owns⟩ := h_lock.owns_of_held h_run h_held
  generalize h_o : sys.db.row a.fingerprintId = o at h_owns
  generalize l.draft = d at h_owns
  -- what it holds after the insertion is held on a live row
  cases h_owns with
  | flagGone _ _ => exact h_pc.elim
  | flagLock _ h_live _ => exact ⟨_, rfl, h_live⟩
  | flagInserted _ h_live _ => exact ⟨_, rfl, h_live⟩
  | flagCounted _ h_live _ => exact ⟨_, rfl, h_live⟩
  | hide _ h_active _ _ =>
    exact ⟨_, rfl, fun h_deleted => Status.noConfusion (h_active.symm.trans h_deleted)⟩
  | keep _ h_live _ _ _ => exact ⟨_, rfl, h_live⟩

/-- A transaction about to commit holds the row whose flags it has written. -/
theorem Tidy.row_held (h : Tidy sys) (h_lock : Locking sys) {tx : ℕ} {op : Op} {reply : Reply}
    {existing : Option ℤ} {drawn : Option ℕ} {i c : ℤ} {o : Option Flag}
    {d : Option (Option Flag)}
    (h_run : sys.activity tx = .running ⟨op, .finish reply, existing, drawn⟩)
    (h_owns : OwnsFlag ⟨op, .finish reply, existing, drawn⟩ (i, c) o d) :
    (sys.db.rows.cell i).Held tx := by
  cases h_owns with
  | insert h_target _ h_pc =>
    obtain ⟨rfl, -⟩ := Prod.mk.inj h_target
    exact (h_lock.live_of_insert h_run h_pc).1
  | clear _ => exact h.holds tx _ _ _ _ _ h_run

/-- A row that was there is there: only retention removes rows. -/
theorem FlagLocks.row_some {allowed : Op → Prop} {sys' : System} (h_flags : FlagLocks sys)
    (h_lock : Locking sys) (h_step : Step allowed sys sys') {i : ℤ} {r : Fingerprint}
    (h_row : sys.db.row i = some r) : ∃ r', sys'.db.row i = some r' := by
  rcases h_lock.row_step h_step i with
    h_same | ⟨tx, op, reply, existing, drawn, d, h_run, -, -, -, h_owns, h_d⟩
  · exact ⟨r, h_same.trans h_row⟩
  · rw [h_row] at h_owns
    cases d with
    | some r' => exact ⟨r', h_d⟩
    | none =>
      cases h_owns with
      | purge _ _ => exact (h_flags.calls tx _ h_run).elim

end Holders

/-! ### One step -/

section Step

variable {sys sys' : System}

/-- **The tombstone stays**: of the commits of others only a resurrection could take it away. Hits
and flags lock live rows only, and a deletion writes none but those. -/
theorem Tidy.tombstone_step (h : Tidy sys) (h_lock : Locking sys) (h_flags : FlagLocks sys)
    (h_step : Step NoRetention sys sys') (h_ok : Exclusive sys sys') {tx : ℕ} {enc : EncryptText}
    {a : ContributeArgs} {pc : Pc} {i : ℤ} {drawn : Option ℕ}
    (h_run : sys.activity tx = .running ⟨.contribute enc a, pc, some i, drawn⟩)
    (h_run' : ∃ s, sys'.activity tx = .running s) :
    ∃ r, sys'.db.row i = some r ∧ r.status = .deleted := by
  obtain ⟨r, h_row, h_deleted⟩ := h.tombstone tx enc a pc i drawn h_run
  rcases h_lock.row_step h_step i with
    h_same | ⟨tx', op, reply, existing, drawn', d, h_end, h_eq, -, -, h_owns, -⟩
  · exact ⟨r, h_same.trans h_row, h_deleted⟩
  · exfalso
    have h_done : sys'.activity tx' = .done op reply := by
      rw [h_eq]
      exact Function.update_self _ _ _
    rw [h_row] at h_owns
    cases h_owns with
    -- only a resurrection rewrites a tombstone, and there is no other one of this row
    | resurrect _ =>
      obtain rfl := h_ok tx' tx _ _ _ _ _ _ _ _ _ h_end h_done h_run
      obtain ⟨s, h_s⟩ := h_run'
      exact Activity.noConfusion (h_done.symm.trans h_s)
    | hit _ h_live _ _ => exact h_live h_deleted
    | hide _ h_active _ _ => exact Status.noConfusion (h_active.symm.trans h_deleted)
    | keep _ h_live _ _ _ => exact h_live h_deleted
    | delete h_live _ => exact h_live h_deleted
    | purge _ _ => exact h_flags.calls tx' _ h_end
    | anonymize _ _ _ => exact h_flags.calls tx' _ h_end

/-- The clause `tombstone`, by what the step is to the contribution. -/
theorem Tidy.step_tombstone (h : Tidy sys) (h_lock : Locking sys) (h_flags : FlagLocks sys)
    (h_step : Step NoRetention sys sys') (h_ok : Exclusive sys sys') (tx : ℕ) (enc : EncryptText)
    (a : ContributeArgs) (pc : Pc) (i : ℤ) (drawn : Option ℕ)
    (h_run' : sys'.activity tx = .running ⟨.contribute enc a, pc, some i, drawn⟩) :
    ∃ r, sys'.db.row i = some r ∧ r.status = .deleted := by
  have h_moves := h_step.moves tx
  generalize h_a : sys.activity tx = act at h_moves
  generalize h_a' : sys'.activity tx = act' at h_moves h_run'
  cases h_moves with
  | other _ _ =>
    exact h.tombstone_step h_lock h_flags h_step h_ok (h_a.trans h_run') ⟨_, h_a'.trans h_run'⟩
  | @begin op _ _ =>
    have h_s := congrArg Session.existing (Activity.running.inj h_run')
    exact absurd h_s (by simp)
  | @exec s s' h_exec =>
    obtain rfl := Activity.running.inj h_run'
    rcases h_exec.existing_cases with h_same | ⟨enc₀, a₀, r, -, h_s', h_found, h_deleted⟩
    · obtain ⟨call, pc₀, existing, drawn₀⟩ := s
      obtain rfl : some i = existing := h_same
      obtain rfl : _ = call := h_exec.call_eq
      exact h.tombstone_step h_lock h_flags h_step h_ok h_a ⟨_, h_a'⟩
    · -- it has just read it
      have h_i : i = r.id := Option.some.inj (congrArg Session.existing h_s')
      obtain ⟨h_row, -⟩ := h_lock.row_of_findOwned h_found
      refine ⟨r, ?_, h_deleted⟩
      rw [h_i]
      exact (h_lock.row_exec h_a h_exec r.id).trans h_row
  | commit _ => exact Activity.noConfusion h_run'
  | abort _ => exact Activity.noConfusion h_run'

/-- The clause `holds`: only the rewriting `UPDATE` is followed by a reply. -/
theorem Tidy.step_holds (h : Tidy sys) (h_lock : Locking sys) (h_step : Step NoRetention sys sys')
    (tx : ℕ) (enc : EncryptText) (a : ContributeArgs) (reply : Reply) (i : ℤ) (drawn : Option ℕ)
    (h_run' : sys'.activity tx =
      .running ⟨.contribute enc a, .finish reply, some i, drawn⟩) :
    (sys'.db.rows.cell i).Held tx := by
  have h_moves := h_step.moves tx
  generalize h_a : sys.activity tx = act at h_moves
  generalize sys'.activity tx = act' at h_moves h_run'
  cases h_moves with
  -- others do not take a lock away
  | other h_ne h_acts =>
    have h_held := h.holds tx enc a reply i drawn (h_a.trans h_run')
    rw [h_lock.row_other h_acts h_ne h_held]
    exact h_held
  | @begin op _ _ =>
    have h_s := congrArg Session.existing (Activity.running.inj h_run')
    exact absurd h_s (by simp)
  | @exec s s' h_exec =>
    obtain rfl := Activity.running.inj h_run'
    generalize sys'.db = db at h_exec
    cases h_exec with
    | resurrectWrite h_free h_row =>
      show (Versioned.cell (Versioned.set _ _ _) _).Held tx
      rw [Versioned.cell_set_self]
      exact ⟨_, Cell.lock_write _ _ _, rfl⟩
    | resurrectMiss h_none =>
      -- there is no row to miss
      obtain ⟨r, h_row, -⟩ := h.tombstone tx _ _ _ _ _ h_a
      exact absurd (h_none.symm.trans h_row) (by simp)
  | commit _ => exact Activity.noConfusion h_run'
  | abort _ => exact Activity.noConfusion h_run'

/-- **Nobody flags a tombstone**: a flag of it that is there after the step was there before. So
the flags that a contribution has to clear do not grow while it clears them. -/
theorem FlagLocks.flag_kept {allowed : Op → Prop} (h_flags : FlagLocks sys)
    (h_lock : Locking sys) (h_step : Step allowed sys sys') {i c : ℤ} {f : Flag}
    (h_tomb : ∃ r, sys.db.row i = some r ∧ r.status = .deleted)
    (h_f : (sys'.db.flags.cell (i, c)).committed = some f) :
    (sys.db.flags.cell (i, c)).committed = some f := by
  rcases h_flags.flag_step h_step (i, c) with
    h_same | ⟨tx, op, reply, existing, drawn, d, h_end, -, -, h_owns, h_d⟩
  · exact h_same.symm.trans h_f
  · exfalso
    obtain ⟨r, h_row, h_deleted⟩ := h_tomb
    rw [← h_d, h_f] at h_owns
    generalize (sys.db.flags.cell (i, c)).committed = o at h_owns
    cases h_owns with
    -- a flag is inserted under the lock of a live row only
    | insert h_target _ h_pc =>
      obtain ⟨rfl, -⟩ := Prod.mk.inj h_target
      obtain ⟨-, r', h_row', h_live⟩ := h_lock.live_of_insert h_end h_pc
      obtain rfl := Option.some.inj (h_row'.symm.trans h_row)
      exact h_live h_deleted

/-- One row of the clearing `DELETE`: a flag it passes over it has cleared. `Versioned.Sweep`
takes the flags one by one, as the statement does when it waits for their locks. -/
theorem FlagLocks.uncleared_sweep (h_flags : FlagLocks sys) {tx : ℕ} {enc : EncryptText}
    {a : ContributeArgs} {i : ℤ} {todo : Option (List (ℤ × ℤ))} {flags : Versioned (ℤ × ℤ) Flag}
    {todo' : List (ℤ × ℤ)} {acted : Bool}
    (h_run : sys.activity tx = .running ⟨.contribute enc a, .clearFlags todo, some i, none⟩)
    (h_sweep : Versioned.Sweep tx (fun f : Flag => f.fingerprintId = i) (fun _ => none)
      sys.db.flags todo flags todo' acted) {c : ℤ} {f : Flag}
    (h_f : (sys.db.flags.cell (i, c)).committed = some f)
    (h : (Pc.clearFlags todo).Uncleared (i, c) ∨
      (sys.db.flags.cell (i, c)).lock = some ⟨tx, some none⟩) :
    (i, c) ∈ todo' ∨ (flags.cell (i, c)).lock = some ⟨tx, some none⟩ := by
  have h_id : decide (f.fingerprintId = i) = true :=
    decide_eq_true (congrArg Prod.fst (h_flags.keyed (i, c) f h_f))
  -- what it sees of a flag is the flag as committed: what it has written is cleared
  have h_seen : ∀ g, (sys.db.flags.cell (i, c)).view tx = some g → g = f := by
    intro g h_view
    by_cases h_held : (sys.db.flags.cell (i, c)).Held tx
    · obtain ⟨⟨holder, draft⟩, h_l, rfl⟩ := h_held
      have h_owns := h_flags.owns_of_lock h_run h_l rfl
      rw [h_f] at h_owns
      rw [Cell.view_of_lock h_l rfl] at h_view
      cases h_owns with
      | clear h_pc => exact absurd h_view (by simp)
    · rw [Cell.view_of_not_held h_held, h_f] at h_view
      exact (Option.some.inj h_view).symm
  have h_todo : (∀ l, todo = some l → (i, c) ∈ l) ∨ (sys.db.flags.cell (i, c)).view tx = none := by
    refine h.imp (fun h_mem l h_l => ?_) (fun h_l => Cell.view_of_lock h_l rfl)
    subst h_l
    exact h_mem
  refine (h_sweep.deletes (fun g h_view => ?_) h_todo).imp_right (fun h_view => ?_)
  · rw [h_seen g h_view]
    exact h_id
  · exact Cell.lock_of_view_none ((h_sweep.committed (i, c)).trans h_f) h_view

/-- The clause `cleared`, by what the step is to the contribution. -/
theorem Tidy.step_cleared (h : Tidy sys) (h_lock : Locking sys) (h_flags : FlagLocks sys)
    (h_step : Step NoRetention sys sys') (tx : ℕ) (enc : EncryptText) (a : ContributeArgs)
    (pc : Pc) (i : ℤ) (drawn : Option ℕ)
    (h_run' : sys'.activity tx = .running ⟨.contribute enc a, pc, some i, drawn⟩) (c : ℤ) (f : Flag)
    (h_f' : (sys'.db.flags.cell (i, c)).committed = some f) :
    pc.Uncleared (i, c) ∨ (sys'.db.flags.cell (i, c)).lock = some ⟨tx, some none⟩ := by
  have h_moves := h_step.moves tx
  generalize h_a : sys.activity tx = act at h_moves
  generalize sys'.activity tx = act' at h_moves h_run'
  cases h_moves with
  -- no flag comes, and one that is cleared stays locked
  | other h_ne h_acts =>
    have h_run := h_a.trans h_run'
    have h_f := h_flags.flag_kept h_lock h_step (h.tombstone tx enc a pc i drawn h_run) h_f'
    refine (h.cleared tx enc a pc i drawn h_run c f h_f).imp_right (fun h_l => ?_)
    rw [h_flags.flag_other h_acts h_ne ⟨_, h_l, rfl⟩]
    exact h_l
  | @begin op _ _ =>
    have h_s := congrArg Session.existing (Activity.running.inj h_run')
    exact absurd h_s (by simp)
  | @exec s s' h_exec =>
    obtain rfl := Activity.running.inj h_run'
    have h_f : (sys.db.flags.cell (i, c)).committed = some f :=
      (h_flags.move h_a h_exec (i, c)).committed.symm.trans h_f'
    generalize sys'.db = db at h_exec
    cases h_exec with
    | selectTombstone _ _ => exact Or.inl trivial
    -- the sweep deletes what it has not deleted yet; after it nothing is left to delete
    | clearFlags h_sweep =>
      exact h_flags.uncleared_sweep h_a h_sweep h_f (h.cleared tx _ _ _ _ _ h_a c f h_f)
    | clearFlagsDone =>
      refine (h.cleared tx _ _ _ _ _ h_a c f h_f).imp_left (fun h_mem => ?_)
      exact absurd h_mem List.not_mem_nil
    | resurrectEval _ _ => exact h.cleared tx _ _ _ _ _ h_a c f h_f
    | resurrectWrite _ _ => exact h.cleared tx _ _ _ _ _ h_a c f h_f
    | resurrectMiss _ => exact h.cleared tx _ _ _ _ _ h_a c f h_f
  | commit _ => exact Activity.noConfusion h_run'
  | abort _ => exact Activity.noConfusion h_run'

/-- A flag row changes hands only with the lock on its fingerprint: while one transaction holds
that, the others do not change what it reads there. A contribution that clears flags holds no such
lock, but it clears those of a tombstone. -/
theorem Tidy.view_other (h : Tidy sys) (h_lock : Locking sys) (h_flags : FlagLocks sys)
    {tx tx' : ℕ} (h_acts : Acts tx' sys sys') (h_ne : tx' ≠ tx) {i : ℤ}
    (h_held : (sys.db.rows.cell i).Held tx) (c : ℤ) :
    (sys'.db.flags.cell (i, c)).view tx = (sys.db.flags.cell (i, c)).view tx := by
  -- its own flags are locked, and flags of the row are written under the lock it holds
  by_cases h_mine : (sys.db.flags.cell (i, c)).Held tx
  · rw [h_flags.flag_other h_acts h_ne h_mine]
  · cases h_acts with
    | begin h_db => rw [h_db]
    | exec h_run h_exec =>
      exact (h_flags.move h_run h_exec (i, c)).view_of_ne (fun h_eq => h_ne h_eq.symm)
    | commit h_run _ h_db =>
      rw [h_db, (flags_endOf _ _ _ (i, c)).same]
      rintro ⟨l, h_l, h_holder⟩
      have h_owns := h_flags.owns_of_lock h_run h_l h_holder
      exact h_ne ((h.row_held h_lock h_run h_owns).unique h_held)
    | abort h_db =>
      rw [h_db, Cell.view_of_not_held h_mine, Cell.view_of_not_held]
      · show ((sys.db.flags.rollback tx').cell (i, c)).committed = _
        rw [Versioned.committed_cell_rollback]
      · rintro ⟨l, h_l, rfl⟩
        exact h_mine ⟨l, ((flags_rollback tx' sys.db (i, c)).lock l).mp h_l |>.1, rfl⟩

/-- The clause `counted`: the flag counts under the lock of its row, and until it commits nobody
changes what it sees. -/
theorem Tidy.step_counted (h : Tidy sys) (h_lock : Locking sys) (h_flags : FlagLocks sys)
    (h_step : Step NoRetention sys sys') (tx : ℕ) (enc : EncryptText) (a : FlagArgs) (pc : Pc)
    (drawn : Option ℕ) (n : ℕ)
    (h_run' : sys'.activity tx = .running ⟨.flag enc a, pc, none, drawn⟩)
    (h_n : pc.counted = some n) : n = (sys'.db.flaggersSeen tx a.fingerprintId).ncard := by
  have h_after : ∀ {pc : Pc}, pc.counted = some n → pc.AfterInsert := by
    intro pc h_pc
    cases pc with
    | update status m => trivial
    | finish reply =>
      cases reply with
      | flag result =>
        cases result with
        | some r => trivial
        | none => exact absurd h_pc (by simp [Pc.counted])
      | _ => exact absurd h_pc (by simp [Pc.counted])
    | _ => exact absurd h_pc (by simp [Pc.counted])
  have h_moves := h_step.moves tx
  generalize h_a : sys.activity tx = act at h_moves
  generalize sys'.activity tx = act' at h_moves h_run'
  cases h_moves with
  -- it holds the row, so others leave the flags alone that it sees
  | other h_ne h_acts =>
    have h_run := h_a.trans h_run'
    have h_held := (h_lock.live_of_insert h_run (h_after h_n)).1
    unfold Db.flaggersSeen
    simp only [h.view_other h_lock h_flags h_acts h_ne h_held]
    exact h.counted tx enc a pc drawn n h_run h_n
  | @begin op _ _ =>
    have h_s := congrArg Session.pc (Activity.running.inj h_run')
    have h_start : (Session.start op).pc.counted = none := by cases op <;> rfl
    rw [show (Session.start op).pc = pc from h_s, h_n] at h_start
    exact absurd h_start (by simp)
  | @exec s s' h_exec =>
    obtain rfl := Activity.running.inj h_run'
    generalize sys'.db = db at h_exec
    cases h_exec with
    -- `COUNT(DISTINCT …)` has just counted them, and no later statement changes a flag
    | count =>
      obtain rfl := Option.some.inj h_n
      exact h_flags.countFlaggers_eq_ncard tx a.fingerprintId
    | hide _ _ =>
      obtain rfl := Option.some.inj h_n
      exact h.counted tx _ _ _ _ _ h_a rfl
    | keep _ _ =>
      obtain rfl := Option.some.inj h_n
      exact h.counted tx _ _ _ _ _ h_a rfl
    | _ => exact absurd h_n (by simp [Pc.counted])
  | commit _ => exact Activity.noConfusion h_run'
  | abort _ => exact Activity.noConfusion h_run'

/-- The flags of a row that a commit does not touch are those there were. -/
theorem flaggers_commit {tx : ℕ} {op : Op} {i : ℤ} (h_db : sys'.db = endOf tx op sys.db)
    (h_not : ∀ c, ¬ (sys.db.flags.cell (i, c)).Held tx) :
    sys'.db.flaggers i = sys.db.flaggers i := by
  unfold Db.flaggers
  rw [h_db]
  simp only [(flags_endOf tx op sys.db _).same (h_not _)]

/-- A contribution reads no flag of an id that has no row yet, -/
theorem Tidy.view_fresh (h : Tidy sys) (h_flags : FlagLocks sys) {tx : ℕ} {enc : EncryptText}
    {a : ContributeArgs} {reply : Reply} {drawn : Option ℕ} {i : ℤ}
    (h_run : sys.activity tx = .running ⟨.contribute enc a, .finish reply, none, drawn⟩)
    (h_row : sys.db.row i = none) (c : ℤ) : (sys.db.flags.cell (i, c)).view tx = none := by
  have h_none : (sys.db.flags.cell (i, c)).committed = none := by
    cases h_f : (sys.db.flags.cell (i, c)).committed with
    | none => rfl
    | some f =>
      obtain ⟨r, h_r⟩ := h.flagRow i c f h_f
      exact absurd (h_row.symm.trans h_r) (by simp)
  rw [Cell.view_of_not_held, h_none]
  rintro ⟨l, h_l, h_holder⟩
  cases h_flags.owns_of_lock h_run h_l h_holder

/-- nor of the tombstone it has rewritten: they are all cleared. -/
theorem Tidy.view_resurrected (h : Tidy sys) (h_flags : FlagLocks sys) {tx : ℕ}
    {enc : EncryptText} {a : ContributeArgs} {reply : Reply} {drawn : Option ℕ} {i : ℤ}
    (h_run : sys.activity tx = .running ⟨.contribute enc a, .finish reply, some i, drawn⟩) (c : ℤ) :
    (sys.db.flags.cell (i, c)).view tx = none := by
  cases h_f : (sys.db.flags.cell (i, c)).committed with
  | some f =>
    have h_l := (h.cleared tx enc a _ i drawn h_run c f h_f).resolve_left id
    exact Cell.view_of_lock h_l rfl
  | none =>
    rw [Cell.view_of_not_held, h_f]
    rintro ⟨l, h_l, h_holder⟩
    have h_own := h_flags.owns_of_lock h_run h_l h_holder
    rw [h_f] at h_own
    cases h_own

/-- **A commit keeps the counts right.** The cases are what the transaction owns on the row. A
flag writes the number of flags it sees, which are those it commits; a resurrection writes 0 and
has cleared them; and the others write neither the count nor a flag. -/
theorem Tidy.commit_flagCount (h : Tidy sys) (h_lock : Locking sys) (h_flags : FlagLocks sys)
    {tx : ℕ} {op : Op} {reply : Reply} {existing : Option ℤ} {drawn : Option ℕ}
    (h_run : sys.activity tx = .running ⟨op, .finish reply, existing, drawn⟩)
    (h_db : sys'.db = endOf tx op sys.db) {i : ℤ} {r' : Fingerprint}
    (h_row' : sys'.db.row i = some r') : r'.flagCount = (sys'.db.flaggers i).ncard := by
  have h_call := h_flags.calls tx _ h_run
  have h_end : endOf tx op sys.db = sys.db.commit tx := by
    unfold endOf
    cases op <;> first | rfl | exact h_call.elim
  have h_same : (∀ c o d, ¬ OwnsFlag ⟨op, .finish reply, existing, drawn⟩ (i, c) o d) →
      sys'.db.flaggers i = sys.db.flaggers i := by
    intro h_none
    refine flaggers_commit h_db (fun c => ?_)
    rintro ⟨l, h_l, h_holder⟩
    exact h_none c _ _ (h_flags.owns_of_lock h_run h_l h_holder)
  -- what is committed is what the transaction read
  have h_view : ∀ c,
      (sys'.db.flags.cell (i, c)).committed = (sys.db.flags.cell (i, c)).view tx := by
    intro c
    rw [h_db, h_end]
    show ((sys.db.flags.commit tx).cell (i, c)).committed = _
    rw [Versioned.cell_commit, Cell.committed_commit]
  have h_empty : (∀ c, (sys.db.flags.cell (i, c)).view tx = none) →
      (sys'.db.flaggers i).ncard = 0 := by
    intro h_none
    have h_set : sys'.db.flaggers i = ∅ := by
      refine Set.eq_empty_of_forall_notMem (fun c => ?_)
      rintro ⟨f, h_f⟩
      rw [h_view, h_none c] at h_f
      exact absurd h_f (by simp)
    rw [h_set, Set.ncard_empty]
  replace h_row' : (sys.db.rows.cell i).view tx = some r' := by
    rw [h_db, h_end] at h_row'
    change ((sys.db.rows.commit tx).cell i).committed = some r' at h_row'
    rwa [Versioned.cell_commit, Cell.committed_commit] at h_row'
  by_cases h_held : (sys.db.rows.cell i).Held tx
  · obtain ⟨⟨holder, draft⟩, h_cell, rfl, h_owns⟩ := h_lock.owns_of_held h_run h_held
    rw [Cell.view_of_lock h_cell rfl] at h_row'
    change draft.getD (sys.db.row i) = some r' at h_row'
    generalize h_o : sys.db.row i = o at h_owns h_row'
    cases h_owns with
    -- a new row, and no flag has its id
    | insert h_eq =>
      obtain rfl := Option.some.inj h_row'
      rw [h_eq, h_empty (h.view_fresh h_flags h_run h_o)]
      rfl
    -- the count is 0, and every flag is cleared
    | resurrect h_eq =>
      obtain rfl := Option.some.inj h_row'
      rw [h_eq, h_empty (h.view_resurrected h_flags h_run)]
      rfl
    -- calls that write no flag leave count and flags alone
    | hitGone _ _ =>
      rw [h_same (fun c o d h' => by cases h')]
      exact h.flagCount i r' (h_o.trans h_row')
    | flagGone _ _ =>
      rw [h_same]
      · exact h.flagCount i r' (h_o.trans h_row')
      · intro c o d h'
        cases h' with
        | insert _ _ h_pc => exact h_pc
    | hit _ _ _ h_eq =>
      obtain rfl := Option.some.inj h_row'
      have h_count := h.flagCount i _ h_o
      rw [h_same (fun c o d h' => by cases h'), h_eq]
      exact h_count
    | hide h_target _ _ h_eq =>
      -- it leaves the flags it has counted
      obtain rfl := Option.some.inj h_row'
      subst h_target
      unfold Db.flaggers
      simp only [h_view]
      rw [h_eq]
      exact h.counted _ _ _ _ _ _ h_run rfl
    | keep h_target _ _ _ h_eq =>
      obtain rfl := Option.some.inj h_row'
      subst h_target
      unfold Db.flaggers
      simp only [h_view]
      rw [h_eq]
      exact h.counted _ _ _ _ _ _ h_run rfl
    | delete _ h_eq =>
      obtain rfl := Option.some.inj h_row'
      have h_count := h.flagCount i _ h_o
      rw [h_same (fun c o d h' => by cases h'), h_eq]
      exact h_count
    | purge _ _ => exact h_call.elim
    | anonymize _ _ _ => exact h_call.elim
  · -- a row it does not hold keeps its flags
    rw [Cell.view_of_not_held h_held] at h_row'
    rw [h_same (fun c o d h' => h_held (h.row_held h_lock h_run h'))]
    exact h.flagCount i r' h_row'

/-- The clause `flagCount`: only a commit changes rows or flags. -/
theorem Tidy.step_flagCount (h : Tidy sys) (h_lock : Locking sys) (h_flags : FlagLocks sys)
    (h_step : Step NoRetention sys sys') (i : ℤ) (r' : Fingerprint)
    (h_row' : sys'.db.row i = some r') : r'.flagCount = (sys'.db.flaggers i).ncard := by
  obtain ⟨tx, h_acts⟩ := h_step.acts
  cases h_acts with
  | begin h_db =>
    rw [h_db] at h_row' ⊢
    exact h.flagCount i r' h_row'
  | exec h_run h_exec =>
    rw [h_lock.row_exec h_run h_exec i] at h_row'
    unfold Db.flaggers
    simp only [(h_flags.move h_run h_exec _).committed]
    exact h.flagCount i r' h_row'
  | commit h_run _ h_db => exact h.commit_flagCount h_lock h_flags h_run h_db h_row'
  | abort h_db =>
    have h_row : sys.db.row i = some r' := by
      rw [h_db] at h_row'
      change ((sys.db.rows.rollback tx).cell i).committed = some r' at h_row'
      rwa [Versioned.committed_cell_rollback] at h_row'
    -- a rollback leaves rows and flags as they are committed
    have h_flaggers : sys'.db.flaggers i = sys.db.flaggers i := by
      unfold Db.flaggers
      rw [h_db]
      ext c
      show (∃ f, ((sys.db.flags.rollback tx).cell (i, c)).committed = some f) ↔ _
      rw [Versioned.committed_cell_rollback]
      exact Iff.rfl
    rw [h_flaggers]
    exact h.flagCount i r' h_row

/-- The clause `flagRow`: without retention no row goes, and a flag is inserted for a row that is
there. -/
theorem Tidy.step_flagRow (h : Tidy sys) (h_lock : Locking sys) (h_flags : FlagLocks sys)
    (h_step : Step NoRetention sys sys') (i c : ℤ) (f : Flag)
    (h_f : (sys'.db.flags.cell (i, c)).committed = some f) : ∃ r, sys'.db.row i = some r := by
  rcases h_flags.flag_step h_step (i, c) with
    h_same | ⟨tx, op, reply, existing, drawn, d, h_run, -, -, h_owns, h_d⟩
  · obtain ⟨r, h_r⟩ := h.flagRow i c f (h_same.symm.trans h_f)
    exact h_flags.row_some h_lock h_step h_r
  · rw [← h_d, h_f] at h_owns
    generalize (sys.db.flags.cell (i, c)).committed = o at h_owns
    cases h_owns with
    | insert h_target _ h_pc =>
      obtain ⟨rfl, -⟩ := Prod.mk.inj h_target
      obtain ⟨-, r, h_r, -⟩ := h_lock.live_of_insert h_run h_pc
      exact h_flags.row_some h_lock h_step h_r

/-- **Exclusive steps keep rows, flags and sessions in agreement**, clause by clause. `Exclusive`
is used for `tombstone` alone. -/
theorem Tidy.step (h : Tidy sys) (h_lock : Locking sys) (h_flags : FlagLocks sys)
    (h_step : Step NoRetention sys sys') (h_ok : Exclusive sys sys') : Tidy sys' where
  tombstone := h.step_tombstone h_lock h_flags h_step h_ok
  holds := h.step_holds h_lock h_step
  cleared := h.step_cleared h_lock h_flags h_step
  counted := h.step_counted h_lock h_flags h_step
  flagCount := h.step_flagCount h_lock h_flags h_step
  flagRow := h.step_flagRow h_lock h_flags h_step

end Step

/-- **Every run of exclusive steps** keeps them in agreement, with the locks on flags that the
steps rely on. -/
theorem Tidy.reaches {s : Store} (h_s : s.Reachable) {sys : System}
    (h : ReachesBy NoRetention Exclusive s sys) : Tidy sys ∧ FlagLocks sys := by
  refine h.invariant h_s (fun sys => Tidy sys ∧ FlagLocks sys) ⟨.quiet h_s, .quiet s⟩ ?_
  intro x y h_lock h_inv h_step h_ok
  refine ⟨h_inv.1.step h_lock h_inv.2 h_step h_ok, h_inv.2.step (fun tx c h_c => ?_) h_step⟩
  have h_moves := h_step.moves tx
  rw [h_c] at h_moves
  generalize h_a : x.activity tx = act at h_moves
  cases h_moves with
  | other _ _ => exact h_inv.2.calls tx c h_a
  | begin h_allowed _ => rw [Session.start_call]; exact h_allowed
  | exec h_exec => rw [h_exec.call_eq]; exact h_inv.2.calls tx _ h_a

/-! ### Resurrections are safe -/

/-- The step commits the deletion of a row: a `soft_delete` that has found it live is done. -/
def Deletes (i : ℤ) (sys sys' : System) : Prop :=
  ∃ tx nowMs, (∃ drawn, sys.activity tx =
      .running ⟨.softDelete i nowMs, .finish (.softDelete true), none, drawn⟩) ∧
    sys'.activity tx = .done (.softDelete i nowMs) (.softDelete true)

/-- The steps of the runs this is about: any calls but retention, and exclusive. -/
def ExclusiveStep (sys sys' : System) : Prop := Step NoRetention sys sys' ∧ Exclusive sys sys'

/-- What a state and the steps from it are to be. `tombstone` is about the `UPDATE`, whose `WHERE`
names only the id: the row it rewrites is a tombstone nevertheless. `reactivated` is about all
further runs, the others about the state and its next step. -/
structure ResurrectsSafely (sys : System) : Prop where
  /-- The resurrecting `UPDATE` rewrites a tombstone. -/
  tombstone : ∀ sys' tx enc a pc i drawn reply drawn', Step NoRetention sys sys' →
    sys.activity tx = .running ⟨.contribute enc a, pc, some i, drawn⟩ →
    (∀ reply, pc ≠ .finish reply) →
    sys'.activity tx = .running ⟨.contribute enc a, .finish reply, some i, drawn'⟩ →
    ∃ r v, sys.db.row i = some r ∧ r.status = .deleted ∧
      (sys'.db.rows.cell i).lock = some ⟨tx, some (some (resurrectRow enc a v r))⟩
  /-- A hidden row becomes active only after a deletion. -/
  reactivated : ∀ sys' i r r', Relation.ReflTransGen ExclusiveStep sys sys' →
    sys.db.row i = some r → r.status = .hidden → sys'.db.row i = some r' → r'.status = .active →
    ∃ x y, Relation.ReflTransGen ExclusiveStep sys x ∧ ExclusiveStep x y ∧ Deletes i x y ∧
      Relation.ReflTransGen ExclusiveStep y sys'
  /-- No flag of a live row is discarded. -/
  flagsKept : ∀ sys' i c f, Step NoRetention sys sys' →
    (sys.db.flags.cell (i, c)).committed = some f →
    (sys'.db.flags.cell (i, c)).committed = none →
    ∃ r, sys.db.row i = some r ∧ r.status = .deleted
  /-- `flag_count` is the number of flags. -/
  flagCount : ∀ i r, sys.db.snapshot.row i = some r →
    r.flagCount = (sys.db.snapshot.flagsOf i).length

section Safety

variable {sys sys' : System}

/-- The `UPDATE` of a resurrection finds the tombstone that was read. -/
theorem Tidy.rewrites_tombstone (h : Tidy sys) (h_step : Step NoRetention sys sys') {tx : ℕ}
    {enc : EncryptText} {a : ContributeArgs} {pc : Pc} {i : ℤ} {drawn : Option ℕ} {reply : Reply}
    {drawn' : Option ℕ} (h_run : sys.activity tx = .running ⟨.contribute enc a, pc, some i, drawn⟩)
    (h_pc : ∀ reply, pc ≠ .finish reply)
    (h_run' : sys'.activity tx = .running ⟨.contribute enc a, .finish reply, some i, drawn'⟩) :
    ∃ r v, sys.db.row i = some r ∧ r.status = .deleted ∧
      (sys'.db.rows.cell i).lock = some ⟨tx, some (some (resurrectRow enc a v r))⟩ := by
  obtain ⟨r, h_row, h_deleted⟩ := h.tombstone tx enc a pc i drawn h_run
  have h_moves := h_step.moves tx
  rw [h_run, h_run'] at h_moves
  cases h_moves with
  | other _ _ => exact absurd rfl (h_pc _)
  | exec h_exec =>
    generalize sys'.db = db at h_exec
    cases h_exec with
    -- the last step to an answer is the write, since there is a row
    | @resurrectWrite _ _ _ r' v _ h_row' =>
      obtain rfl := Option.some.inj (h_row'.symm.trans h_row)
      refine ⟨r', v, h_row, h_deleted, ?_⟩
      show (Versioned.cell (Versioned.set _ _ _) _).lock = _
      rw [Versioned.cell_set_self, Cell.lock_write]
    | resurrectMiss h_none => exact absurd (h_none.symm.trans h_row) (by simp)

/-- A hidden row stays hidden until it is deleted. A flag hides active rows only, and a
resurrection needs a tombstone. -/
theorem Tidy.hidden_step (h : Tidy sys) (h_lock : Locking sys) (h_flags : FlagLocks sys)
    (h_step : Step NoRetention sys sys') {i : ℤ} {r : Fingerprint} (h_row : sys.db.row i = some r)
    (h_hidden : r.status = .hidden) :
    (∃ r', sys'.db.row i = some r' ∧ r'.status = .hidden) ∨ Deletes i sys sys' := by
  rcases h_lock.row_step h_step i with
    h_same | ⟨tx, op, reply, existing, drawn, d, h_run, h_eq, -, -, h_owns, h_d⟩
  · exact Or.inl ⟨r, h_same.trans h_row, h_hidden⟩
  · have h_done : sys'.activity tx = .done op reply := by
      rw [h_eq]
      exact Function.update_self _ _ _
    rw [h_row] at h_owns
    cases h_owns with
    | resurrect _ =>
      -- what is resurrected is a tombstone
      obtain ⟨r₀, h_row₀, h_deleted⟩ := h.tombstone tx _ _ _ _ _ h_run
      obtain rfl := Option.some.inj (h_row.symm.trans h_row₀)
      exact absurd (h_hidden.symm.trans h_deleted) (by simp)
    | hit _ _ _ h_r' => exact Or.inl ⟨_, h_d, by rw [h_r']; exact h_hidden⟩
    | hide _ _ _ h_r' => exact Or.inl ⟨_, h_d, by rw [h_r']; rfl⟩
    | keep _ _ _ _ h_r' => exact Or.inl ⟨_, h_d, by rw [h_r']; exact h_hidden⟩
    | delete _ _ => exact Or.inr ⟨tx, _, ⟨_, h_run⟩, h_done⟩
    | purge _ _ => exact (h_flags.calls tx _ h_run).elim
    | anonymize _ _ _ => exact (h_flags.calls tx _ h_run).elim

/-- A flag goes only with a resurrection, which clears those of a tombstone. -/
theorem Tidy.flag_discarded (h : Tidy sys) (h_flags : FlagLocks sys)
    (h_step : Step NoRetention sys sys') {i c : ℤ} {f : Flag}
    (h_f : (sys.db.flags.cell (i, c)).committed = some f)
    (h_f' : (sys'.db.flags.cell (i, c)).committed = none) :
    ∃ r, sys.db.row i = some r ∧ r.status = .deleted := by
  rcases h_flags.flag_step h_step (i, c) with
    h_same | ⟨tx, op, reply, existing, drawn, d, h_run, -, -, h_owns, h_d⟩
  · exact absurd (h_f.symm.trans (h_same.symm.trans h_f')) (by simp)
  · rw [← h_d, h_f, h_f'] at h_owns
    cases h_owns with
    | clear _ => exact h.tombstone tx _ _ _ _ _ h_run

end Safety

/-- **Resurrections are safe** in every run of exclusive steps, from any reachable store and with
any calls but retention. The store need not have been quiet since it was empty: what `Tidy` asks
of it at the start every reachable store has. -/
theorem resurrects_safely (s : Store) (h_s : s.Reachable) (sys : System)
    (h : ReachesBy NoRetention Exclusive s sys) : ResurrectsSafely sys := by
  obtain ⟨h_tidy, h_flags⟩ := Tidy.reaches h_s h
  have h_lock : Locking sys := Locking.reaches h_s h.reaches
  refine ⟨fun sys' tx enc a pc i drawn reply drawn' h_step h_run h_pc h_run' => ?_,
    fun sys' i r r' h_path h_row h_hidden h_row' h_active => ?_,
    fun sys' i c f h_step h_f h_f' => ?_, fun i r h_row => ?_⟩
  · exact h_tidy.rewrites_tombstone h_step h_run h_pc h_run'
  · -- along the run the row is hidden, or a deletion lies behind
    have h_either : (∃ r, sys'.db.row i = some r ∧ r.status = .hidden) ∨
        ∃ x y, Relation.ReflTransGen ExclusiveStep sys x ∧ ExclusiveStep x y ∧ Deletes i x y ∧
          Relation.ReflTransGen ExclusiveStep y sys' := by
      clear h_row' h_active
      induction h_path with
      | refl => exact Or.inl ⟨r, h_row, h_hidden⟩
      | @tail y z h_path h_step ih =>
        rcases ih with ⟨r₀, h_row₀, h_hidden₀⟩ | ⟨x, x', h_to, h_x, h_del, h_from⟩
        · have h_y := Relation.ReflTransGen.trans h h_path
          obtain ⟨h_tidy_y, h_flags_y⟩ := Tidy.reaches h_s h_y
          have h_lock_y := Locking.reaches h_s (ReachesBy.reaches h_y)
          rcases h_tidy_y.hidden_step h_lock_y h_flags_y h_step.1 h_row₀ h_hidden₀ with h' | h_del
          · exact Or.inl h'
          · exact Or.inr ⟨y, z, h_path, h_step, h_del, .refl⟩
        · exact Or.inr ⟨x, x', h_to, h_x, h_del, h_from.tail h_step⟩
    refine h_either.resolve_left ?_
    rintro ⟨r₀, h_row₀, h_hidden₀⟩
    obtain rfl := Option.some.inj (h_row₀.symm.trans h_row')
    exact Status.noConfusion (h_hidden₀.symm.trans h_active)
  · exact h_tidy.flag_discarded h_flags h_step h_f h_f'
  · rw [h_lock.snapshot_row] at h_row
    rw [← Store.countFlaggers_eq_length, Store.countFlaggers_eq_ncard]
    simp only [h_flags.flagged_snapshot]
    exact h_tidy.flagCount i r h_row

/-! ### Runs -/

/-- Only a commit can fail to be exclusive: a step after which the transaction runs on commits
nothing. -/
theorem exclusive_running {db db' : Db} {act : ℕ → Activity} {tx : ℕ} {s : Session} :
    Exclusive ⟨db, act⟩ ⟨db', Function.update act tx (.running s)⟩ := by
  intro tx₁ tx₂ enc enc' a a' reply pc i drawn drawn' h_run h_done _
  by_cases h_tx : tx₁ = tx
  · subst h_tx
    exact absurd ((Function.update_self _ _ _).symm.trans h_done) (by simp)
  · have h_same : act tx₁ = .done (.contribute enc a) reply :=
      (Function.update_of_ne h_tx _ _).symm.trans h_done
    exact Activity.noConfusion (h_run.symm.trans h_same)

/-- Nor can a commit while nobody else is running. -/
theorem exclusive_alone {db : Db} {act : ℕ → Activity} (tx : ℕ) {y : System}
    (h : ∀ tx' s, tx' ≠ tx → act tx' ≠ .running s) : Exclusive ⟨db, act⟩ y := by
  have h_tx : ∀ tx' s, act tx' = .running s → tx' = tx := by
    intro tx' s h_run
    by_contra h_ne
    exact h tx' s h_ne h_run
  intro tx₁ tx₂ enc enc' a a' reply pc i drawn drawn' h_run _ h_run'
  rw [h_tx tx₁ _ h_run, h_tx tx₂ _ h_run']

/-- A row that has been contributed and deleted. -/
def sampleTombstone : Store := Store.empty.run [sampleCall, .softDelete 1 20]

/-- A resurrection alone, from the `SELECT` that reads the tombstone up to its commit. The row is
active again. -/
theorem resurrects_safely_alone : ∃ sys, ReachesBy NoRetention Exclusive sampleTombstone sys ∧
    (∃ r, sys.db.row 1 = some r ∧ r.status = .active) ∧ ResurrectsSafely sys := by
  have h : ReachesBy NoRetention Exclusive sampleTombstone
      ⟨.ofStore sampleTombstone, fun _ => .idle⟩ := .refl
  have h := h.tail ⟨@Step.begin _ ⟨_, _⟩ 1 sampleCall rfl trivial, exclusive_running⟩
  have h := h.tail ⟨@Step.exec _ ⟨_, _⟩ 1 _ _ _ rfl (.selectTombstone rfl rfl), exclusive_running⟩
  have h := h.tail ⟨@Step.exec _ ⟨_, _⟩ 1 _ _ _ rfl (.clearFlags .start), exclusive_running⟩
  have h := h.tail ⟨@Step.exec _ ⟨_, _⟩ 1 _ _ _ rfl .clearFlagsDone, exclusive_running⟩
  have h := h.tail ⟨@Step.exec _ ⟨_, _⟩ 1 _ _ _ rfl (.resurrectEval rfl nofun), exclusive_running⟩
  have h := h.tail ⟨@Step.exec _ ⟨_, _⟩ 1 _ _ _ rfl (.resurrectWrite rfl rfl), exclusive_running⟩
  have h := h.tail ⟨@Step.commit _ ⟨_, _⟩ 1 _ _ _ _ rfl, exclusive_alone 1 (fun tx' c h_ne => by
    simp [Function.update_of_ne h_ne])⟩
  exact ⟨_, h, ⟨_, rfl, rfl⟩, resurrects_safely sampleTombstone ⟨_, rfl⟩ _ h⟩

/-- **Two resurrections of one tombstone are not.** Call 1 reads the tombstone and clears
its flags. Call 2 resurrects it and commits, a flag hides it, and then the `UPDATE` of
call 1 rewrites a hidden row: it is active again, without a deletion, and its
`flag_count` is 0 beside a flag. -/
theorem resurrects_live_row : ∃ x y z, Reaches NoRetention sampleTombstone x ∧
    Step NoRetention x y ∧ Step NoRetention y z ∧
    (∃ enc a seen drawn row drawn',
      x.activity 1 = .running ⟨.contribute enc a, .resurrect seen, some 1, drawn⟩ ∧
      y.activity 1 = .running
        ⟨.contribute enc a, .finish (.contribute (some (.written row), true)), some 1, drawn'⟩) ∧
    (x.db.row 1).map (·.status) = some .hidden ∧
    (z.db.row 1).map (fun r => (r.status, r.flagCount)) = some (.active, 0) ∧
    (z.db.snapshot.flagsOf 1).length = 1 ∧ (∀ tx s, z.activity tx ≠ .running s) := by
  have h : Reaches NoRetention sampleTombstone ⟨.ofStore sampleTombstone, fun _ => .idle⟩ := .quiet
  have h := h.begin 1 sampleCall rfl trivial
  have h := h.exec 1 rfl (.selectTombstone rfl rfl)
  have h := h.exec 1 rfl (.clearFlags .start)
  have h := h.exec 1 rfl .clearFlagsDone
  -- the other resurrection
  have h := h.begin 2 sampleCall rfl trivial
  have h := h.exec 2 rfl (.selectTombstone rfl rfl)
  have h := h.exec 2 rfl (.clearFlags .start)
  have h := h.exec 2 rfl .clearFlagsDone
  have h := h.exec 2 rfl (.resurrectEval rfl nofun)
  have h := h.exec 2 rfl (.resurrectWrite rfl rfl)
  have h := h.commit 2 rfl
  -- a flag that hides
  have h := h.begin 3 (.flag (fun _ t => t) { sampleFlag 1 2 with autoHideThreshold := 1 })
    rfl trivial
  have h := h.exec 3 rfl (.flagLock rfl rfl (by decide))
  have h := h.exec 3 rfl (.insertFlag (fun _ => nofun) rfl)
  have h := h.exec 3 rfl .count
  have h := h.exec 3 rfl (.hide (by decide) rfl)
  have h := h.commit 3 rfl
  have h := h.exec 1 rfl (.resurrectEval rfl nofun)
  refine ⟨_, _, _, h, @Step.exec _ ⟨_, _⟩ 1 _ _ _ rfl (.resurrectWrite rfl rfl),
    @Step.commit _ ⟨_, _⟩ 1 _ _ _ _ rfl, ⟨_, _, _, _, _, _, rfl, rfl⟩, rfl, rfl, rfl, ?_⟩
  intro tx c
  by_cases h₁ : tx = 1
  · subst h₁
    exact nofun
  · by_cases h₃ : tx = 3
    · subst h₃
      exact nofun
    · by_cases h₂ : tx = 2
      · subst h₂
        exact nofun
      · simp [Function.update_of_ne h₁, Function.update_of_ne h₂, Function.update_of_ne h₃]

end Concurrent
end FingerprintHub
