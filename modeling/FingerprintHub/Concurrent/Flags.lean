import FingerprintHub.Store.FlagCount
import FingerprintHub.Concurrent.Locking

/-!
# Flags under locks

The flag rows have locks of their own, and `flag` and `contribute` write them: one
inserts the flag of a consumer, the other clears the flags of a tombstone. `OwnsFlag`
lists what either may hold. `FlagLocks` says that every lock on a flag row is held so.
Retention also writes flag rows; it is left out here, and `NoRetention` says so.
-/

namespace FingerprintHub
namespace Concurrent

/-- Every call but `apply_retention`, which clears and cascades flags by sweeps of its own. -/
def NoRetention : Op → Prop
  | .applyRetention _ _ _ => False
  | _ => True

/-- The statements of `flag` after its `INSERT`. -/
def Pc.AfterInsert : Pc → Prop
  | .count _ | .update _ _ | .finish (.flag (some _)) => True
  | _ => False

/-- The statements of a resurrecting `contribute` once its `DELETE` has started. -/
def Pc.AfterClear : Pc → Prop
  | .clearFlags (some _) | .resurrect _ | .finish _ => True
  | _ => False

/-- What a session holds on a flag row: a flag it has inserted, or one it has cleared. Neither is
locked without being written, so that there is always a draft. -/
inductive OwnsFlag : Session → ℤ × ℤ → Option Flag → Option (Option Flag) → Prop
  | insert {enc : EncryptText} {a : FlagArgs} {pc : Pc} {drawn : Option ℕ} {k : ℤ × ℤ} {f : Flag}
      (h_target : (a.fingerprintId, a.consumerId) = k) (h_key : f.key = k)
      (h_pc : pc.AfterInsert) :
      OwnsFlag ⟨.flag enc a, pc, none, drawn⟩ k none (some (some f))
  | clear {enc : EncryptText} {a : ContributeArgs} {pc : Pc} {drawn : Option ℕ} {i c : ℤ}
      {f : Flag} (h_pc : pc.AfterClear) :
      OwnsFlag ⟨.contribute enc a, pc, some i, drawn⟩ (i, c) (some f) (some none)

/-- The locks on the flag rows are what the sessions say they are, and a committed flag lies under
its fingerprint and consumer. -/
structure FlagLocks (sys : System) : Prop where
  calls : ∀ tx s, sys.activity tx = .running s → NoRetention s.call
  owns : ∀ k, (sys.db.flags.cell k).OwnedBy (sys.Owner (fun s => OwnsFlag s k))
  keyed : ∀ k f, (sys.db.flags.cell k).committed = some f → f.key = k

/-! ### One statement -/

/-- `flag` keeps its flag from statement to statement, -/
theorem OwnsFlag.flag {enc : EncryptText} {a : FlagArgs} {pc pc' : Pc} {drawn drawn' : Option ℕ}
    {k : ℤ × ℤ} {o : Option Flag} {d : Option (Option Flag)}
    (h_pc : pc.AfterInsert → pc'.AfterInsert) (h : OwnsFlag ⟨.flag enc a, pc, none, drawn⟩ k o d) :
    OwnsFlag ⟨.flag enc a, pc', none, drawn'⟩ k o d := by
  cases h with
  | insert h_target h_key h_after => exact .insert h_target h_key (h_pc h_after)

/-- and `contribute` what it has cleared. -/
theorem OwnsFlag.contribute {enc : EncryptText} {a : ContributeArgs} {pc pc' : Pc}
    {existing : Option ℤ} {drawn drawn' : Option ℕ} {k : ℤ × ℤ} {o : Option Flag}
    {d : Option (Option Flag)} (h_pc : pc.AfterClear → pc'.AfterClear)
    (h : OwnsFlag ⟨.contribute enc a, pc, existing, drawn⟩ k o d) :
    OwnsFlag ⟨.contribute enc a, pc', existing, drawn'⟩ k o d := by
  cases h with
  | clear h_after => exact .clear (h_pc h_after)

/-- What a running session holds on a flag row. -/
theorem FlagLocks.owns_of_lock {sys : System} (h : FlagLocks sys) {tx : ℕ} {s : Session}
    (h_run : sys.activity tx = .running s) {k : ℤ × ℤ} {l : RowLock Flag}
    (h_lock : (sys.db.flags.cell k).lock = some l) (h_holder : l.holder = tx) :
    OwnsFlag s k (sys.db.flags.cell k).committed l.draft := by
  obtain ⟨s', h_run', h_owns⟩ := h.owns k l h_lock
  rw [h_holder] at h_run'
  obtain rfl := Activity.running.inj (h_run'.symm.trans h_run)
  exact h_owns

/-- What a transaction reads lies under its key, if it owns what it holds: it reads what is
committed, or what it has inserted. -/
theorem view_keyed_of_owns {db : Db} {tx : ℕ} {s : Session} {k : ℤ × ℤ}
    (h_owns : ∀ l, (db.flags.cell k).lock = some l → l.holder = tx →
      OwnsFlag s k (db.flags.cell k).committed l.draft)
    (h_keyed : ∀ f, (db.flags.cell k).committed = some f → f.key = k) {f : Flag}
    (h_view : (db.flags.cell k).view tx = some f) : f.key = k := by
  -- its own draft, or what is committed
  by_cases h_held : (db.flags.cell k).Held tx
  · obtain ⟨l, h_lock, h_holder⟩ := h_held
    have h_own := h_owns l h_lock h_holder
    rw [Cell.view_of_lock h_lock h_holder] at h_view
    generalize (db.flags.cell k).committed = o at h_own h_view
    generalize l.draft = d at h_own h_view
    cases h_own with
    | insert _ h_key _ => exact Option.some.inj h_view ▸ h_key
    | clear _ => exact absurd h_view (by simp)
  · rw [Cell.view_of_not_held h_held] at h_view
    exact h_keyed f h_view

/-- What a transaction reads lies under its key. -/
theorem FlagLocks.view_keyed {sys : System} (h : FlagLocks sys) {tx : ℕ} {k : ℤ × ℤ} {f : Flag}
    (h_view : (sys.db.flags.cell k).view tx = some f) : f.key = k := by
  by_cases h_held : (sys.db.flags.cell k).Held tx
  · obtain ⟨l, h_lock, h_holder⟩ := h_held
    obtain ⟨s, h_run, -⟩ := h.owns k l h_lock
    rw [h_holder] at h_run
    exact view_keyed_of_owns (fun _ => h.owns_of_lock h_run) (h.keyed k) h_view
  · rw [Cell.view_of_not_held h_held] at h_view
    exact h.keyed k f h_view

/-- **What a statement does to a flag row.** Two statements write flags, the `INSERT` of `flag`
and the `DELETE` of `contribute`, and every other one leaves them and keeps what its session owns.
-/
theorem Exec.flagMove {tx : ℕ} {s s' : Session} {db db' : Db} (h_exec : Exec tx db s db' s')
    (h_call : NoRetention s.call) {k : ℤ × ℤ}
    (h_owns : ∀ l, (db.flags.cell k).lock = some l → l.holder = tx →
      OwnsFlag s k (db.flags.cell k).committed l.draft)
    (h_keyed : ∀ f, (db.flags.cell k).committed = some f → f.key = k) :
    (db.flags.cell k).Move (OwnsFlag s k) (OwnsFlag s' k) tx (db'.flags.cell k) := by
  cases h_exec with
  | selectLive _ _ => exact .same (fun o d h' => by cases h')
  | selectTombstone _ _ => exact .same (fun o d h' => by cases h')
  | selectNone _ => exact .same (fun o d h' => by cases h')
  | @clearFlags enc a i todo flags todo' acted h_sweep =>
    have h_keep : ∀ o d, OwnsFlag ⟨.contribute enc a, .clearFlags todo, some i, none⟩ k o d →
        OwnsFlag ⟨.contribute enc a, .clearFlags (some todo'), some i, none⟩ k o d :=
      fun o d => OwnsFlag.contribute (fun _ => trivial)
    rcases h_sweep.touch k with h_same | ⟨f, h_free, h_view, h_where, h_cell⟩
    · change (db.flags.cell k).Move _ _ tx (flags.cell k)
      rw [h_same]
      exact .same h_keep
    · have h_key : k = (i, f.consumerId) := by
        have h_f := view_keyed_of_owns h_owns h_keyed h_view
        have h_i : f.fingerprintId = i := by simpa using h_where
        rw [← h_f, ← h_i]
        rfl
      change (db.flags.cell k).Move _ _ tx (flags.cell k)
      rw [h_cell]
      cases h_lock : (db.flags.cell k).lock with
      | none =>
        refine .taken h_lock ?_
        rw [Cell.view_of_lock_none h_lock] at h_view
        rw [h_view, h_key]
        exact .clear trivial
      | some l =>
        -- a flag it has cleared it does not see any more
        have h_own := h_owns l h_lock (h_free l h_lock)
        rw [Cell.view_of_lock h_lock (h_free l h_lock)] at h_view
        generalize (db.flags.cell k).committed = o at h_own h_view
        generalize l.draft = d at h_own h_view
        cases h_own with
        | clear _ => exact absurd h_view (by simp)
  | clearFlagsDone => exact .same (fun o d => OwnsFlag.contribute (fun _ => trivial))
  | resurrectEval _ _ => exact .same (fun o d => OwnsFlag.contribute (fun _ => trivial))
  | resurrectWrite _ _ => exact .same (fun o d => OwnsFlag.contribute (fun _ => trivial))
  | resurrectMiss _ => exact .same (fun o d => OwnsFlag.contribute (fun _ => trivial))
  | insertAllot => exact .same (fun o d h' => by cases h')
  | insertWrite _ _ => exact .same (fun o d h' => by cases h')
  | insertConflict _ _ _ => exact .same (fun o d h' => by cases h')
  | reselectSome _ => exact .same (fun o d h' => by cases h')
  | reselectNone _ => exact .same (fun o d h' => by cases h')
  | flagMissing _ => exact .same (fun o d => OwnsFlag.flag False.elim)
  | flagDeleted _ _ _ => exact .same (fun o d => OwnsFlag.flag False.elim)
  | flagLock _ _ _ => exact .same (fun o d => OwnsFlag.flag False.elim)
  | @insertFlag enc a status h_wait h_none =>
    by_cases h_k : k = (a.fingerprintId, a.consumerId)
    · subst h_k
      change Cell.Move _ _ tx _ (Versioned.cell (Versioned.set _ _ _) _)
      rw [Versioned.cell_set_self]
      -- a lock it waited for is its own, and it has inserted nothing yet
      have h_lock : (db.flags.cell (a.fingerprintId, a.consumerId)).lock = none := by
        cases h_lock : (db.flags.cell (a.fingerprintId, a.consumerId)).lock with
        | none => rfl
        | some l =>
          have h_own := h_owns l h_lock (h_wait l h_lock)
          generalize (db.flags.cell (a.fingerprintId, a.consumerId)).committed = o at h_own
          generalize l.draft = d at h_own
          cases h_own with
          | insert _ _ h_pc => exact h_pc.elim
      refine .taken h_lock ?_
      rw [Cell.view_of_lock_none h_lock] at h_none
      rw [h_none]
      exact .insert rfl rfl trivial
    · change Cell.Move _ _ tx _ (Versioned.cell (Versioned.set _ _ _) _)
      rw [Versioned.cell_set_of_ne _ h_k]
      exact .same (fun o d => OwnsFlag.flag False.elim)
  | flagConflict _ _ => exact .same (fun o d => OwnsFlag.flag False.elim)
  | count => exact .same (fun o d => OwnsFlag.flag (fun _ => trivial))
  | hide _ _ => exact .same (fun o d => OwnsFlag.flag (fun _ => trivial))
  | keep _ _ => exact .same (fun o d => OwnsFlag.flag (fun _ => trivial))
  | _ => first | exact absurd h_call id | exact .same (fun o d h' => by cases h')

/-- The same, from the invariant. -/
theorem FlagLocks.move {sys : System} (h : FlagLocks sys) {tx : ℕ} {s s' : Session} {db : Db}
    (h_run : sys.activity tx = .running s) (h_exec : Exec tx sys.db s db s') (k : ℤ × ℤ) :
    (sys.db.flags.cell k).Move (OwnsFlag s k) (OwnsFlag s' k) tx (db.flags.cell k) :=
  h_exec.flagMove (h.calls tx s h_run) (fun _ => h.owns_of_lock h_run) (h.keyed k)

/-! ### The invariant -/

/-- The end of a transaction releases its flag rows. -/
theorem flags_endOf (tx : ℕ) (call : Op) (db : Db) (k : ℤ × ℤ) :
    (db.flags.cell k).Ends tx ((endOf tx call db).flags.cell k) := by
  unfold endOf
  split
  · exact db.flags.ends_rollback tx k
  · exact db.flags.ends_commit tx k

/-- So does an abort. -/
theorem flags_rollback (tx : ℕ) (db : Db) (k : ℤ × ℤ) :
    (db.flags.cell k).Ends tx ((db.rollback tx).flags.cell k) :=
  db.flags.ends_rollback tx k

/-- At the start no flag is locked. -/
theorem FlagLocks.quiet (s : Store) : FlagLocks (.quiet s) where
  calls := fun tx s h_run => Activity.noConfusion h_run
  owns := fun k => Versioned.ownedBy_ofTable s.flags k _
  keyed := by
    intro k f h_f
    change ((Versioned.ofTable s.flags).cell k).committed = some f at h_f
    rw [Versioned.cell_ofTable] at h_f
    exact Table.key_of_get? h_f

/-- A step that ends a transaction keeps the locks of the others. -/
theorem FlagLocks.ends {sys : System} (h : FlagLocks sys) {tx : ℕ} {db : Db} {a : Activity}
    (h_calls : ∀ tx' s, Function.update sys.activity tx a tx' = .running s → NoRetention s.call)
    (h_flags : ∀ k, (sys.db.flags.cell k).Ends tx (db.flags.cell k)) :
    FlagLocks ⟨db, Function.update sys.activity tx a⟩ := by
  refine ⟨h_calls, fun k => OwnedBy.ended (h.owns k) (h_flags k) db a (fun _ _ _ _ _ => id),
    fun k f h_f => ?_⟩
  change (db.flags.cell k).committed = some f at h_f
  rcases (h_flags k).committed with h_same | ⟨l, d, h_lock, h_holder, h_d, h_c⟩
  · exact h.keyed k f (h_same.symm.trans h_f)
  · refine h.view_keyed (?_ : (sys.db.flags.cell k).view tx = some f)
    rw [Cell.view_of_lock h_lock h_holder, h_d]
    exact h_c.symm.trans h_f

/-- Every step keeps the locks on the flag rows. -/
theorem FlagLocks.step {sys sys' : System} (h : FlagLocks sys)
    (h_calls : ∀ tx s, sys'.activity tx = .running s → NoRetention s.call)
    {allowed : Op → Prop} (h_step : Step allowed sys sys') : FlagLocks sys' := by
  cases h_step with
  | @begin tx op h_idle _ =>
    exact ⟨h_calls, fun k => OwnedBy.begun (h.owns k) h_idle _, h.keyed⟩
  | @exec tx s s' db h_run h_exec =>
    refine ⟨h_calls, fun k => OwnedBy.exec (h.owns k) h_run db (h.move h_run h_exec k)
      (fun _ _ _ _ _ => id), fun k f h_f => ?_⟩
    change (db.flags.cell k).committed = some f at h_f
    rw [(h.move h_run h_exec k).committed] at h_f
    exact h.keyed k f h_f
  | @commit tx op reply existing drawn h_run => exact h.ends h_calls (flags_endOf tx op sys.db)
  | @abort tx s h_run => exact h.ends h_calls (flags_rollback tx sys.db)

/-- **The locks on the flag rows of every run** without retention are what its sessions say. -/
theorem FlagLocks.reaches {allowed : Op → Prop} (h_allowed : ∀ op, allowed op → NoRetention op)
    {s : Store} {sys : System} (h : Reaches allowed s sys) : FlagLocks sys := by
  induction h with
  | refl => exact .quiet s
  | tail h_run h_step ih =>
    refine ih.step (fun tx c h_c => h_allowed _ ?_) h_step
    exact Reaches.allowed_call (Reaches.step h_run h_step) tx h_c

/-- **A flag row changes only by a commit**, to the draft the committing session owned. An
invariant about flags follows from it by cases on `OwnsFlag`. -/
theorem FlagLocks.flag_step {allowed : Op → Prop} {sys sys' : System} (h : FlagLocks sys)
    (h_step : Step allowed sys sys') (k : ℤ × ℤ) :
    (sys'.db.flags.cell k).committed = (sys.db.flags.cell k).committed ∨
    ∃ tx op reply existing drawn d,
      sys.activity tx = .running ⟨op, .finish reply, existing, drawn⟩ ∧
      sys'.activity tx = .done op reply ∧ (sys.db.flags.cell k).lock = some ⟨tx, some d⟩ ∧
      OwnsFlag ⟨op, .finish reply, existing, drawn⟩ k (sys.db.flags.cell k).committed (some d) ∧
      (sys'.db.flags.cell k).committed = d := by
  obtain ⟨tx, h_acts⟩ := h_step.acts
  cases h_acts with
  | begin h_db => rw [h_db]; exact Or.inl rfl
  | exec h_run h_exec => exact Or.inl (h.move h_run h_exec k).committed
  | @commit op reply existing drawn h_run h_done h_db =>
    rw [h_db]
    rcases (flags_endOf tx op sys.db k).committed with h_same | ⟨l, d, h_lock, h_holder, h_d, h_c⟩
    · exact Or.inl h_same
    -- the cell has changed, so that the transaction held its lock
    · have h_owns := h.owns_of_lock h_run h_lock h_holder
      rw [h_d] at h_owns
      have h_cell : (sys.db.flags.cell k).lock = some ⟨tx, some d⟩ := by
        rw [h_lock, ← h_holder, ← h_d]
      exact Or.inr ⟨tx, op, reply, existing, drawn, d, h_run, h_done, h_cell, h_owns, h_c⟩
  | abort h_db =>
    rw [h_db]
    refine Or.inl ?_
    show ((sys.db.flags.rollback tx).cell k).committed = _
    rw [Versioned.committed_cell_rollback]

/-- A flag row that a transaction holds is left alone by the others. -/
theorem FlagLocks.flag_other {sys sys' : System} (h : FlagLocks sys) {tx tx' : ℕ}
    (h_acts : Acts tx' sys sys') (h_ne : tx' ≠ tx) {k : ℤ × ℤ}
    (h_held : (sys.db.flags.cell k).Held tx) : sys'.db.flags.cell k = sys.db.flags.cell k := by
  have h_not : ¬ (sys.db.flags.cell k).Held tx' := fun h' => h_ne (h'.unique h_held)
  obtain ⟨l, h_lock, rfl⟩ := h_held
  cases h_acts with
  | begin h_db => rw [h_db]
  | exec h_run h_exec => exact (h.move h_run h_exec k).eq_of_ne h_lock (fun h_eq => h_ne h_eq.symm)
  | commit _ _ h_db => rw [h_db]; exact (flags_endOf _ _ _ k).same h_not
  | abort h_db => rw [h_db]; exact (flags_rollback _ _ k).same h_not

/-! ### Counting -/

/-- `SELECT COUNT(DISTINCT consumer_id)` counts the consumers whose flag the transaction reads.
The key of a flag row has the consumer, so that `DISTINCT` takes nothing away. -/
theorem FlagLocks.countFlaggers_eq_ncard {sys : System} (h : FlagLocks sys) (tx : ℕ) (id : ℤ) :
    sys.db.countFlaggers tx id =
      {c | ∃ f, (sys.db.flags.cell (id, c)).view tx = some f}.ncard := by
  unfold Db.countFlaggers
  -- `DISTINCT` makes a set of the list, and the two sets have the same members
  rw [← List.card_toFinset, ← Set.ncard_coe_finset]
  congr 1
  ext c
  rw [Finset.mem_coe, List.mem_toFinset, List.mem_map]
  constructor
  · rintro ⟨f, h_f, rfl⟩
    obtain ⟨h_mem, h_id⟩ := List.mem_filter.mp h_f
    obtain ⟨k, h_view⟩ := Versioned.mem_viewRows.mp h_mem
    have h_key : k = (id, f.consumerId) := by
      have h_id : f.fingerprintId = id := by simpa using h_id
      rw [← h.view_keyed h_view, ← h_id]
      rfl
    exact ⟨f, h_key ▸ h_view⟩
  · rintro ⟨f, h_view⟩
    have h_key := h.view_keyed h_view
    refine ⟨f, List.mem_filter.mpr ⟨Versioned.mem_viewRows.mpr ⟨_, h_view⟩, ?_⟩, ?_⟩
    · exact decide_eq_true (congrArg Prod.fst h_key)
    · exact congrArg Prod.snd h_key

/-- A consumer has flagged, by the committed table, just when its flag is committed. -/
theorem FlagLocks.flagged_snapshot {sys : System} (h : FlagLocks sys) (id c : ℤ) :
    sys.db.snapshot.Flagged id c ↔ ∃ f, (sys.db.flags.cell (id, c)).committed = some f := by
  have h_get : sys.db.snapshot.flags.get? (id, c) = _ := Versioned.get?_snapshot h.keyed (id, c)
  unfold Store.Flagged
  rw [h_get]

end Concurrent
end FingerprintHub
