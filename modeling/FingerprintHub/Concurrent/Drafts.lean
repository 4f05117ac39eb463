import FingerprintHub.Concurrent.Answers
import FingerprintHub.Concurrent.Hits
import FingerprintHub.Concurrent.Resurrect
import FingerprintHub.Concurrent.Sequences

/-!
# What a transaction is about to commit

`Owns`, `OwnsFlag` and `OwnsHit` say what a transaction may hold. `Drafted` says what it
does hold when its statements are done: one hit under its own id, its flag or somebody's
in its place, and a row whose key no other row has, committed or not. With it the commit
of a call is known row by row.
-/

namespace FingerprintHub
namespace Concurrent

/-- No two rows have versions with one key, where a version is committed or about to be. -/
def Db.KeysUnique (db : Db) : Prop :=
  ∀ i j r r', (db.rows.cell i).Version r → (db.rows.cell j).Version r' → r.owned = r'.owned → i = j

/-- The flag of a call is the transaction's draft, or one is committed in its place. -/
def Db.FlagDrafted (tx : ℕ) (db : Db) (enc : EncryptText) (a : FlagArgs) : Prop :=
  (∃ id, db.flags.cell (a.fingerprintId, a.consumerId) =
    ⟨none, some ⟨tx, some (some (a.flag enc id))⟩⟩) ∨
  ((∃ f, (db.flags.cell (a.fingerprintId, a.consumerId)).committed = some f) ∧
    ¬ (db.flags.cell (a.fingerprintId, a.consumerId)).Held tx)

/-- What the transactions have written, table by table, with what the sequence has given them. -/
structure Drafted (sys : System) : Prop where
  /-- `UNIQUE (phash_hex, consumer_id)`, for rows about to be committed as well. -/
  keys : sys.db.KeysUnique
  /-- The sequence starts at one. -/
  drawn_pos : ∀ tx s v, sys.activity tx = .running s → s.drawn = some v → 0 < v
  /-- `report_hit` has inserted one hit. -/
  hit : ∀ tx enc a pc, sys.activity tx = .running ⟨.reportHit enc a, pc, none, none⟩ →
    pc.AfterHit → ∃ k, sys.db.hits.cell k = ⟨none, some ⟨tx, some (some (a.hit enc k))⟩⟩ ∧
      ∀ k', (sys.db.hits.cell k').Held tx → k' = k
  /-- A hit lies under its id. -/
  hitKeyed : sys.db.hits.Keyed Hit.id
  /-- `flag` has inserted its flag, or found one. -/
  flag : ∀ tx enc a pc drawn, sys.activity tx = .running ⟨.flag enc a, pc, none, drawn⟩ →
    pc.AfterInsert → sys.db.FlagDrafted tx enc a

/-- At the start nothing is written, and a store that is well-formed has unique keys. -/
theorem Drafted.quiet {s : Store} (h_wf : s.Wf) : Drafted (.quiet s) where
  keys := by
    have h_row : ∀ {i r}, ((Versioned.ofTable s.fingerprints).cell i).Version r →
        s.row i = some r := by
      intro i r h_r
      rw [Versioned.cell_ofTable] at h_r
      rcases h_r with h_r | ⟨l, h_lock, -⟩
      · exact h_r
      · exact absurd h_lock (by simp)
    exact fun i j r r' h_r h_r' => h_wf.owned_inj i j r r' (h_row h_r) (h_row h_r')
  drawn_pos := fun _ _ _ h_run => Activity.noConfusion h_run
  hit := fun _ _ _ _ h_run => Activity.noConfusion h_run
  hitKeyed := by
    intro k hit h_hit
    change ((Versioned.ofTable s.hits).cell k).committed = some hit at h_hit
    rw [Versioned.cell_ofTable] at h_hit
    exact Table.key_of_get? h_hit
  flag := fun _ _ _ _ _ h_run => Activity.noConfusion h_run

section Step

variable {allowed : Op → Prop} {sys sys' : System}

/-! ### Keys -/

/-- A version a statement writes has the key of one that was there, or a key that was
nowhere. -/
theorem Locking.version_exec (h : Locking sys) {tx : ℕ} {s s' : Session} {db : Db}
    (h_run : sys.activity tx = .running s) (h_exec : Exec tx sys.db s db s') {i : ℤ}
    {r : Fingerprint} (h_r : (db.rows.cell i).Version r) :
    (∃ r₀, (sys.db.rows.cell i).Version r₀ ∧ r₀.owned = r.owned) ∨
    (s'.target = some i ∧ ∀ j r', (sys.db.rows.cell j).Version r' → r'.owned ≠ r.owned) := by
  rcases (h.rowMove h_run h_exec i).version h_r with h_old | h_owns
  · exact Or.inl ⟨r, h_old, rfl⟩
  cases h_c : (sys.db.rows.cell i).committed with
  | some r₀ =>
    rw [h_c] at h_owns
    exact Or.inl ⟨r₀, Or.inl h_c, h_owns.owned_eq.symm⟩
  | none =>
    rw [h_c] at h_owns
    cases h_owns with
    | insert h_row =>
      cases h_exec with
      | insertWrite h_key h_wait =>
        refine Or.inr ⟨congrArg some (congrArg Fingerprint.id h_row), ?_⟩
        intro j r' h_r' h_eq
        rw [h_row, freshRow_owned] at h_eq
        rcases h_r' with h_committed | ⟨l, h_lock, h_d⟩
        · exact h_key j r' h_committed h_eq
        -- it waits for the drafts of others, and has written none of its own
        · refine h_wait ⟨j, l, r', h_lock, fun h_holder => ?_, h_d, h_eq⟩
          obtain ⟨l', -, -, h_own⟩ := h.owns_of_held h_run ⟨l, h_lock, h_holder⟩
          cases h_own

/-- The clause `keys`: an `INSERT` waits for whoever is writing its key, and no other statement
makes a new one. -/
theorem Drafted.step_keys (h : Drafted sys) (h_lock : Locking sys)
    (h_step : Step allowed sys sys') : sys'.db.KeysUnique := by
  have h_ends : ∀ tx, (∀ i, (sys.db.rows.cell i).Ends tx (sys'.db.rows.cell i)) →
      sys'.db.KeysUnique :=
    fun tx h_ends i j r r' h_r h_r' =>
      h.keys i j r r' ((h_ends i).version h_r) ((h_ends j).version h_r')
  obtain ⟨tx, h_acts⟩ := h_step.acts
  cases h_acts with
  | begin h_db => rw [h_db]; exact h.keys
  | exec h_run h_exec =>
    intro i j r r' h_r h_r' h_eq
    rcases h_lock.version_exec h_run h_exec h_r with ⟨r₀, h_r₀, h_eq₀⟩ | ⟨h_i, h_new⟩ <;>
      rcases h_lock.version_exec h_run h_exec h_r' with ⟨r₁, h_r₁, h_eq₁⟩ | ⟨h_j, h_new'⟩
    · exact h.keys i j r₀ r₁ h_r₀ h_r₁ (h_eq₀.trans (h_eq.trans h_eq₁.symm))
    · exact absurd (h_eq₀.trans h_eq) (h_new' i r₀ h_r₀)
    · exact absurd (h_eq₁.trans h_eq.symm) (h_new j r₁ h_r₁)
    · exact Option.some.inj (h_i.symm.trans h_j)
  | commit _ _ h_db => exact h_ends tx (fun i => h_db ▸ rows_endOf _ _ _ i)
  | abort h_db => exact h_ends tx (fun i => h_db ▸ rows_rollback _ _ i)

/-! ### Hits -/

/-- The hit rows of others are left alone. -/
theorem HitLocks.kept (h : HitLocks sys) {tx : ℕ} (h_acts : Acts tx sys sys') (k : ℤ) :
    (sys.db.hits.cell k).Kept tx (sys'.db.hits.cell k) := by
  cases h_acts with
  | begin h_db => rw [h_db]; exact fun _ _ _ => rfl
  | exec h_run h_exec => exact (h.move h_run h_exec k).kept
  | commit _ _ h_db => rw [h_db]; exact (hits_endOf _ _ _ k).kept
  | abort h_db => rw [h_db]; exact (hits_rollback _ _ k).kept

/-- Who holds a hit row has inserted it. -/
theorem HitLocks.owns_of_held (h : HitLocks sys) {tx : ℕ} {s : Session}
    (h_run : sys.activity tx = .running s) {k : ℤ} (h_held : (sys.db.hits.cell k).Held tx) :
    ∃ enc a pc, s = ⟨.reportHit enc a, pc, none, none⟩ ∧ pc.AfterHit := by
  obtain ⟨l, h_l, rfl⟩ := h_held
  obtain ⟨s', h_run', h_owns⟩ := h.owns k l h_l
  obtain rfl := Activity.running.inj (h_run'.symm.trans h_run)
  generalize (sys.db.hits.cell k).committed = o at h_owns
  generalize l.draft = d at h_owns
  cases h_owns with
  | insert _ h_pc => exact ⟨_, _, _, rfl, h_pc⟩

/-- The clause `hit`, by what the step is to the call. -/
theorem Drafted.step_hit (h : Drafted sys) (h_hits : HitLocks sys)
    (h_step : Step allowed sys sys') (tx : ℕ) (enc : EncryptText) (a : HitArgs) (pc : Pc)
    (h_run' : sys'.activity tx = .running ⟨.reportHit enc a, pc, none, none⟩)
    (h_pc : pc.AfterHit) :
    ∃ k, sys'.db.hits.cell k = ⟨none, some ⟨tx, some (some (a.hit enc k))⟩⟩ ∧
      ∀ k', (sys'.db.hits.cell k').Held tx → k' = k := by
  have h_moves := h_step.moves tx
  generalize h_a : sys.activity tx = act at h_moves
  generalize sys'.activity tx = act' at h_moves h_run'
  cases h_moves with
  | other h_ne h_acts =>
    obtain ⟨k, h_cell, h_one⟩ := h.hit tx enc a pc (h_a.trans h_run') h_pc
    have h_kept := fun k' => h_hits.kept h_acts k' tx (fun h_eq => h_ne h_eq.symm)
    refine ⟨k, ?_, fun k' h_held => h_one k' ?_⟩
    · rw [h_kept k (Or.inl (by rw [h_cell]; exact ⟨_, rfl, rfl⟩)), h_cell]
    · rw [← h_kept k' (Or.inr h_held)]
      exact h_held
  | @begin op _ _ =>
    have h_s := Activity.running.inj h_run'
    cases op <;> cases h_s
    exact h_pc.elim
  | @exec s s' h_exec =>
    obtain rfl := Activity.running.inj h_run'
    generalize sys'.db = db' at h_exec ⊢
    cases h_exec with
    | insertHit =>
      have h_empty := h_hits.fresh (sys.db.lastHitId + 1) (Int.lt_succ _)
      refine ⟨sys.db.lastHitId + 1, ?_, fun k' h_held => ?_⟩
      · show (Versioned.set _ _ _).cell _ = _
        rw [Versioned.cell_set_self, h_empty]
        rfl
      · by_contra h_k
        change ((Versioned.set _ _ _).cell k').Held tx at h_held
        rw [Versioned.cell_set_of_ne _ h_k] at h_held
        -- before its `INSERT` it held no hit
        obtain ⟨_, _, _, h_eq, h_after⟩ := h_hits.owns_of_held h_a h_held
        cases h_eq
        exact h_after
    | bumpHit _ => exact h.hit tx enc a _ h_a trivial
    | _ => exact h_pc.elim
  | commit _ => exact Activity.noConfusion h_run'
  | abort _ => exact Activity.noConfusion h_run'

/-- The clause `hitKeyed`: a hit is inserted under the id it has. -/
theorem Drafted.step_hitKeyed (h : Drafted sys) (h_hits : HitLocks sys)
    (h_step : Step allowed sys sys') : sys'.db.hits.Keyed Hit.id := by
  have h_ends : ∀ tx, (∀ k, (sys.db.hits.cell k).Ends tx (sys'.db.hits.cell k)) →
      sys'.db.hits.Keyed Hit.id := by
    intro tx h_ends k hit h_hit
    rcases (h_ends k).committed with h_same | ⟨l, d, h_l, h_holder, h_d, h_c⟩
    · exact h.hitKeyed k hit (h_same.symm.trans h_hit)
    · -- what is committed is the one hit of its transaction
      obtain ⟨s, h_run, -⟩ := h_hits.owns k l h_l
      obtain ⟨enc, a, pc, rfl, h_pc⟩ := h_hits.owns_of_held h_run ⟨l, h_l, rfl⟩
      obtain ⟨k₀, h_cell, h_one⟩ := h.hit _ enc a pc h_run h_pc
      obtain rfl := h_one k ⟨l, h_l, rfl⟩
      have h_draft : l.draft = some (some (a.hit enc k)) := by
        rw [h_cell] at h_l
        rw [← Option.some.inj h_l]
      obtain rfl := Option.some.inj (h_draft.symm.trans h_d)
      obtain rfl := Option.some.inj (h_c.symm.trans h_hit)
      rfl
  obtain ⟨tx, h_acts⟩ := h_step.acts
  cases h_acts with
  | begin h_db => rw [h_db]; exact h.hitKeyed
  | exec h_run h_exec =>
    intro k hit h_hit
    rw [(h_hits.move h_run h_exec k).committed] at h_hit
    exact h.hitKeyed k hit h_hit
  | commit _ _ h_db => exact h_ends tx (fun k => h_db ▸ hits_endOf _ _ _ k)
  | abort h_db => exact h_ends tx (fun k => h_db ▸ hits_rollback _ _ k)

/-! ### Flags -/

/-- The flag rows of others are left alone. -/
theorem FlagLocks.kept (h : FlagLocks sys) {tx : ℕ} (h_acts : Acts tx sys sys') (k : ℤ × ℤ) :
    (sys.db.flags.cell k).Kept tx (sys'.db.flags.cell k) := by
  cases h_acts with
  | begin h_db => rw [h_db]; exact fun _ _ _ => rfl
  | exec h_run h_exec => exact (h.move h_run h_exec k).kept
  | commit _ _ h_db => rw [h_db]; exact (flags_endOf _ _ _ k).kept
  | abort h_db => rw [h_db]; exact (flags_rollback _ _ k).kept

/-- Before its `INSERT` a flag holds no flag row. -/
theorem FlagLocks.not_held (h : FlagLocks sys) {tx : ℕ} {enc : EncryptText} {a : FlagArgs}
    {pc : Pc} {drawn : Option ℕ} (h_run : sys.activity tx = .running ⟨.flag enc a, pc, none, drawn⟩)
    (h_pc : ¬ pc.AfterInsert) (k : ℤ × ℤ) : ¬ (sys.db.flags.cell k).Held tx := by
  rintro ⟨l, h_l, h_holder⟩
  have h_owns := h.owns_of_lock h_run h_l h_holder
  generalize (sys.db.flags.cell k).committed = o at h_owns
  generalize l.draft = d at h_owns
  cases h_owns with
  | insert _ _ h_after => exact h_pc h_after

/-- The clause `flag`, by what the step is to the call. A flag that was found in place stays: its
row is locked, and only a resurrection would clear it. -/
theorem Drafted.step_flag (h : Drafted sys) (h_lock : Locking sys) (h_tidy : Tidy sys)
    (h_flags : FlagLocks sys) (h_step : Step allowed sys sys') (tx : ℕ) (enc : EncryptText)
    (a : FlagArgs) (pc : Pc) (drawn : Option ℕ)
    (h_run' : sys'.activity tx = .running ⟨.flag enc a, pc, none, drawn⟩)
    (h_pc : pc.AfterInsert) : sys'.db.FlagDrafted tx enc a := by
  have h_moves := h_step.moves tx
  generalize h_a : sys.activity tx = act at h_moves
  generalize sys'.activity tx = act' at h_moves h_run'
  cases h_moves with
  | @other _ tx' h_ne h_acts =>
    have h_a := h_a.trans h_run'
    have h_kept :=
      h_flags.kept h_acts (a.fingerprintId, a.consumerId) tx (fun h_eq => h_ne h_eq.symm)
    rcases h.flag tx enc a pc drawn h_a h_pc with ⟨id, h_cell⟩ | ⟨⟨f, h_f⟩, h_not⟩
    · refine Or.inl ⟨id, ?_⟩
      rw [h_kept (Or.inl (by rw [h_cell]; exact ⟨_, rfl, rfl⟩)), h_cell]
    · -- nobody clears the flags of a row that is held, and live
      have h_not' : ¬ (sys'.db.flags.cell (a.fingerprintId, a.consumerId)).Held tx := by
        intro h_held
        rw [h_kept (Or.inr h_held)] at h_held
        exact h_not h_held
      have h_view := h_tidy.view_other h_lock h_flags h_acts h_ne
        (h_lock.live_of_insert h_a h_pc).1 a.consumerId
      rw [Cell.view_of_not_held h_not, Cell.view_of_not_held h_not'] at h_view
      exact Or.inr ⟨⟨f, h_view.trans h_f⟩, h_not'⟩
  | @begin op _ _ =>
    have h_s := Activity.running.inj h_run'
    cases op <;> cases h_s
    exact h_pc.elim
  | @exec s s' h_exec =>
    obtain rfl := Activity.running.inj h_run'
    generalize sys'.db = db' at h_exec ⊢
    cases h_exec with
    | insertFlag h_wait h_none =>
      have h_not := h_flags.not_held h_a id (a.fingerprintId, a.consumerId)
      rw [Cell.view_of_not_held h_not] at h_none
      refine Or.inl ⟨sys.db.lastFlagId + 1, ?_⟩
      show (Versioned.set _ _ _).cell _ = _
      rw [Versioned.cell_set_self]
      show (⟨_, _⟩ : Cell Flag) = _
      rw [h_none]
    | flagConflict h_wait h_some =>
      have h_not := h_flags.not_held h_a id (a.fingerprintId, a.consumerId)
      rw [Cell.view_of_not_held h_not] at h_some
      exact Or.inr ⟨⟨_, h_some⟩, h_not⟩
    | count => exact h.flag tx enc a _ _ h_a trivial
    | hide _ _ => exact h.flag tx enc a _ _ h_a trivial
    | keep _ _ => exact h.flag tx enc a _ _ h_a trivial
    | _ => exact h_pc.elim
  | commit _ => exact Activity.noConfusion h_run'
  | abort _ => exact Activity.noConfusion h_run'

/-- **The invariant holds over every step**, clause by clause. -/
theorem Drafted.step (h : Drafted sys) (h_lock : Locking sys) (h_tidy : Tidy sys)
    (h_flags : FlagLocks sys) (h_hits : HitLocks sys) (h_step : Step allowed sys sys') :
    Drafted sys' where
  keys := h.step_keys h_lock h_step
  drawn_pos := by
    intro tx s' v h_run' h_v
    rcases h_step.drawn_origin h_run' h_v with ⟨s, h_run, h_s, -⟩ | ⟨h_new, -, -⟩
    · exact h.drawn_pos tx s v h_run h_s
    · omega
  hit := h.step_hit h_hits h_step
  hitKeyed := h.step_hitKeyed h_hits h_step
  flag := h.step_flag h_lock h_tidy h_flags h_step

end Step

end Concurrent
end FingerprintHub
